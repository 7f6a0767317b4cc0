import Cubicle.KeyedRecords
import Cubicle.ManagerRequests

/-!
# The process registry

Processes are found by their id, and within a workspace also by their friendly name. Every request
that starts, names or removes a process is here, and what a lookup finds after any sequence of them.
-/

namespace Cubicle.Manager
open List
open ByteText CStrings RecordFiles JsonText JsonSpelling JsonEncoding RpcEnvelope KeyedRecords
open Controller (ENOSPC ENAMETOOLONG)

def isTerminalState (state : Bytes) : Bool :=
  state ∈ [ascii "completed", ascii "failed", ascii "lost", ascii "removed", ascii "exited"]

/-- `controller_status_state`: the state a controller reports. -/
def controllerStatusState (env : Surroundings) (i : ℕ) (p : ProcessRecord) : Option Bytes :=
  (env.status i p).map fun state =>
    if state.text = ascii "exited" then ascii "completed" else state.text

/-- `process_observed_state`; the number counts the processes observed by one request. -/
def observedState (env : Surroundings) (i : ℕ) (p : ProcessRecord) : Bytes :=
  if isTerminalState p.state then p.state
  else match controllerStatusState env i p with
    | some state => state
    | none => if env.hasExit i p.processId then ascii "completed" else ascii "lost"

/-- By id anywhere, and by friendly name in the workspace that is given. -/
def processMatches (ref : Bytes) (workspaceId : Option Bytes) (p : ProcessRecord) : Bool :=
  p.processId = ref || workspaceId = some p.workspaceId && p.friendlyName = ref

/-- `find_process_record`; the error says whether the reference is ambiguous. -/
def findProcess (reg : Registry) (ref : Bytes) (workspaceId : Option Bytes) :
    Except Bool ProcessRecord :=
  match (processFormat.records reg.processes).filter (processMatches ref workspaceId) with
  | [] => .error false
  | [p] => .ok p
  | _ => .error true

/-- `process_conflict_exists`, the part a start looks at. -/
def friendlyNameTaken (reg : Registry) (workspaceId friendlyName : Bytes) : Bool :=
  (processFormat.records reg.processes).any fun p =>
    p.workspaceId = workspaceId && p.friendlyName = friendlyName

def friendlyNameConflicts (reg : Registry) (workspaceId processId friendlyName : Bytes) : Bool :=
  (processFormat.records reg.processes).any fun p =>
    p.workspaceId = workspaceId && p.processId ≠ processId && p.friendlyName = friendlyName

def namedProcess (reg : Registry) (ref : Bytes) (workspaceId : Option Bytes) :
    Except Refusal ProcessRecord :=
  match findProcess reg ref workspaceId with
  | .ok p => .ok p
  | .error _ => .error (.refusal .notFound "process not found")

/-- `append_process_record`. -/
def appendProcess (file : Bytes) (p : ProcessRecord) (outcome : Option AppendFailure) :
    Bytes × Option Int32 :=
  appendBounded 21504 ENAMETOOLONG file (lineOf p.fields) outcome

/-- `process_record_update_t`. -/
structure ProcessUpdate where
  state : Option Bytes := none
  saved : Option Bool := none
  friendlyName : Option Bytes := none
  restart : Option Bool := none

def ProcessUpdate.apply (u : ProcessUpdate) (p : ProcessRecord) : ProcessRecord :=
  { p with
    state := (u.state.map (clip 32)).getD p.state
    saved := u.saved.getD p.saved
    friendlyName := (u.friendlyName.map (clip 128)).getD p.friendlyName
    restart := u.restart.getD p.restart }

/-- What becomes of a record: an update, or none for its removal. -/
def changeProcess (processId : Bytes) (update : Option ProcessUpdate) (p : ProcessRecord) :
    Option ProcessRecord :=
  if p.processId = processId then update.map (·.apply p) else some p

/-- `rewrite_process_records`; the flag says whether the process was there. -/
def rewriteProcesses (file processId : Bytes) (update : Option ProcessUpdate)
    (outcome : Option Int32) : Except Int32 (Bytes × Bool) :=
  match outcome with
  | some errno => .error errno
  | none => .ok (processFormat.rewrite (changeProcess processId update) file,
      (processFormat.records file).any (·.processId = processId))

def apiProcessStateName (state : Bytes) : Bytes :=
  if state ∈ [ascii "running", ascii "completed", ascii "failed"] then state else ascii "lost"

def processInfoJson (host : Host) (env : Surroundings) (p : ProcessRecord) (size : ℕ) :
    Except Int32 Bytes :=
  match jsonEscape 256 p.friendlyName, jsonEscape 8192 p.cwd with
  | some name, some cwd =>
    match env.outputSize p.processId (ascii "stdout.log"),
        env.outputSize p.processId (ascii "stderr.log") with
    | .ok stdout, .ok stderr =>
      let text := ascii "\x7b\"manager_id\":\"" ++ host.managerId ++
        ascii "\",\"workspace_id\":\"" ++ p.workspaceId ++ ascii "\",\"id\":\"" ++ p.processId ++
        ascii "\",\"friendly_name\":\"" ++ name ++ ascii "\",\"mode\":\"" ++ p.mode ++
        ascii "\",\"state\":\"" ++ apiProcessStateName p.state ++ ascii "\",\"cwd\":\"" ++ cwd ++
        ascii "\",\"argv\":" ++ (if p.argvJson = [] then ascii "[]" else p.argvJson) ++
        ascii ",\"saved\":" ++ boolText p.saved ++ ascii ",\"restart\":" ++ boolText p.restart ++
        ascii ",\"exit_code\":0,\"termination_signal\":0,\"has_exit_status\":false" ++
        ascii ",\"stdout_start_offset\":0,\"stdout_offset\":" ++ dec stdout ++
        ascii ",\"stderr_start_offset\":0,\"stderr_offset\":" ++ dec stderr ++
        ascii ",\"tty_offset\":" ++ dec stdout ++
        ascii ",\"created_at_ms\":0,\"started_at_ms\":0,\"exited_at_ms\":0" ++
        ascii ",\"local_pid\":0,\"local_pgid\":0\x7d"
      if size ≤ text.length then .error ENOSPC else .ok text
    | .error errno, _ => .error errno
    | _, .error errno => .error errno
  | _, _ => .error ENOSPC

def processInfoReply (host : Host) (env : Surroundings) (p : ProcessRecord) : Reply :=
  match processInfoJson host env p 21504 with
  | .ok info => .success info
  | .error errno => .failure .internal (ascii "failed to encode process") false errno

structure StartRequest where
  workspaceRef : Bytes
  friendlyName : Bytes
  mode : Bytes
  stdinPolicy : Bytes
  cwd : Option Bytes
  restart : Bool
  items : List Json

def startFields (params : Members) : Option StartRequest := do
  let workspaceRef ← getRequiredString params (ascii "workspace_id") 128
  let friendlyName ← getOptionalString params (ascii "friendly_name") 128
  let mode ← getRequiredString params (ascii "mode") 32
  let stdinPolicy ← getOptionalString params (ascii "stdin_policy") 32
  let cwd ← getOptionalString params (ascii "cwd") 4096
  let restart ← getOptionalBool params (ascii "restart")
  let items ← getRequiredArray params (ascii "argv")
  -- without a name one is drawn, for a buffer of a size that is refused
  let friendlyName ← friendlyName
  return { workspaceRef, friendlyName, mode, stdinPolicy := stdinPolicy.getD (ascii "open"), cwd,
           restart := restart.getD false, items }

def StartRequest.isValid (q : StartRequest) : Bool :=
  q.items.length ≠ 0 && q.items.length ≤ 4096 && validateField q.workspaceRef &&
    validateField q.mode && validateField q.friendlyName &&
    decide (q.mode ∈ [ascii "stream", ascii "tty", ascii "term"]) &&
    decide (q.stdinPolicy ∈ [ascii "open", ascii "eof"])

def argvItem : Json → Option Bytes
  | .str s => if s.length = 0 ∨ 4096 ≤ s.length then none else some (cstr s)
  | _ => none

/-- `cubicle_json_builder_append_string`. -/
def argumentText (s : Bytes) : Bytes := 0x22 :: escapeText s ++ [0x22]

def buildArgvJson (argv : List Bytes) : Option Bytes :=
  let text := arrayText (argv.map argumentText)
  if 16384 ≤ text.length then none else some text

/-- What a start has established before it launches a controller. -/
structure StartPlan where
  request : StartRequest
  argv : List Bytes
  workspace : WorkspaceRecord
  cwd : Bytes

section Requests
variable (host : Host) (env : Surroundings) (reg : Registry) (c : Connection) (params : Members)

def startChecks : Except Refusal StartPlan := do
  let q ← orRefuse ((startFields params).filter StartRequest.isValid)
    (.refusal .invalidArgument "invalid process start request")
  let argv ← orRefuse (q.items.mapM argvItem) (.refusal .invalidArgument "invalid process argv")
  lockState env
  let workspace ← namedWorkspace reg q.workspaceRef
  require (hasWorkspaceCapability host reg c workspace.id capProcessStart)
    (.refusal .permissionDenied "process start access is required")
  let cwd ← orRefuse
    ((resolveDirectory env (q.cwd.getD workspace.directory)).filter validateField)
    (.refusal .invalidArgument "invalid process directory")
  drawId env "failed to allocate process id"
  require (!friendlyNameTaken reg workspace.id q.friendlyName)
    (.refusal .alreadyExists "process friendly name already exists")
  return ⟨q, argv, workspace, cwd⟩

def StartPlan.record (plan : StartPlan) (id : RandomId) (exited : Bool)
    (controllerId : FieldText 33) (controlSocket : FieldText 4096) (argvJson : Bytes) :
    ProcessRecord where
  processId := id.text
  workspaceId := plan.workspace.id
  friendlyName := plan.request.friendlyName
  mode := plan.request.mode
  state := ascii (if exited then "exited" else "running")
  controllerId := controllerId.text
  controlSocket := controlSocket.text
  cwd := plan.cwd
  saved := false
  argvJson := argvJson
  restart := plan.request.restart
  stdinPolicy := plan.request.stdinPolicy
  workspaceName := plan.workspace.name
  workspaceDirectory := plan.workspace.directory

def launchProcess (plan : StartPlan) : Outcome :=
  match env.launch with
  | .pathTooLong => .only reg (.refusal .resourceLimit "controller path too long")
  | .pathsFailed errno => .only reg (.ioFailure "failed to prepare controller paths" errno)
  | .historyFailed errno => .only reg (.ioFailure "failed to prepare history path" errno)
  | .failed errno =>
    ⟨reg, [.launch env.id.text],
      .failure .internal (ascii "failed to start controller") false errno⟩
  | .ready exited controllerId controlSocket =>
    match buildArgvJson plan.argv with
    | none =>
      ⟨reg, [.launch env.id.text],
        .failure .resourceLimit (ascii "process argv is too large") false ENOSPC⟩
    | some argvJson =>
      match controllerId with
      | .error errno =>
        ⟨reg, [.launch env.id.text], .ioFailure "failed to persist process" errno⟩
      | .ok controllerId =>
        let p := plan.record env.id exited controllerId controlSocket argvJson
        match appendProcess reg.processes p (env.append 0) with
        | (file, some errno) =>
          ⟨{ reg with processes := file }, [.launch env.id.text],
            .ioFailure "failed to persist process" errno⟩
        | (file, none) =>
          ⟨{ reg with processes := file }, [.launch env.id.text], processInfoReply host env p⟩

def processStart : Outcome :=
  guarded reg (startChecks host env reg c params) (launchProcess host env reg)

structure UpdateRequest where
  processRef : Bytes
  workspaceRef : Option Bytes
  friendlyName : Option Bytes
  restart : Option Bool

def updateFields : Option UpdateRequest := do
  let processRef ← getRequiredString params (ascii "process") 128
  let workspaceRef ← getOptionalString params (ascii "workspace_id") 128
  let friendlyName ← getOptionalString params (ascii "friendly_name") 128
  let restart ← getOptionalBool params (ascii "restart")
  if friendlyName.all validateField then some { processRef, workspaceRef, friendlyName, restart }
  else none

def updateChecks : Except Refusal (UpdateRequest × ProcessRecord) := do
  let q ← orRefuse (updateFields params)
    (.refusal .invalidArgument "invalid process update request")
  require (q.friendlyName.isSome || q.restart.isSome)
    (.refusal .invalidArgument "process update has no changes")
  let workspaceId ← scopeOf reg q.workspaceRef
  lockState env
  let p ← namedProcess reg q.processRef workspaceId
  require (hasWorkspaceCapability host reg c p.workspaceId capProcessSignal)
    (.refusal .permissionDenied "process update access is required")
  require (!q.friendlyName.any (friendlyNameConflicts reg p.workspaceId p.processId))
    (.refusal .conflict "friendly name already exists")
  return (q, p)

/-- The end of an update: rewrite the records and show the changed one. -/
def applyUpdate (p : ProcessRecord) (u : ProcessUpdate) : Outcome :=
  match rewriteProcesses reg.processes p.processId (some u) (env.rewrite 0) with
  | .error errno => .only reg (.ioFailure "failed to update process" errno)
  | .ok (file, false) =>
    .only { reg with processes := file } (.ioFailure "failed to update process" 0)
  | .ok (file, true) =>
    .only { reg with processes := file } (processInfoReply host env (u.apply p))

def processUpdate : Outcome :=
  guarded reg (updateChecks host env reg c params) fun (q, p) =>
    applyUpdate host env reg p { friendlyName := q.friendlyName, restart := q.restart }

/-- The process a save, unsave or remove request is for. -/
def processChecks (denied : String) : Except Refusal ProcessRecord := do
  let ref ← orRefuse (getRequiredString params (ascii "process_id") 128)
    (.refusal .invalidArgument "missing process id")
  lockState env
  let p ← namedProcess reg ref none
  require (hasWorkspaceCapability host reg c p.workspaceId capProcessRemove)
    (.refusal .permissionDenied denied)
  return p

/-- `process.save` and `process.unsave`. -/
def processSave (saved : Bool) : Outcome :=
  guarded reg (processChecks host env reg c params "process save access is required") fun p =>
    applyUpdate host env reg p { saved := some saved }

/-- The two directories of a controller, for the given removal of a request. -/
def removeTrees (i : ℕ) : Option Int32 :=
  match env.removeTree (2 * i) with
  | some errno => some errno
  | none => env.removeTree (2 * i + 1)

/-- A process that is found to have ended is marked so before it is removed. -/
def markEnded (file : Bytes) (p : ProcessRecord) : Bytes × Bytes :=
  let latest := observedState env 0 p
  if !isTerminalState p.state && isTerminalState latest then
    match rewriteProcesses file p.processId (some { state := some latest }) (env.rewrite 0) with
    | .error _ => (file, p.state)
    | .ok (file, found) => (file, if found then clip 32 latest else p.state)
  else (file, p.state)

def processRemove : Outcome :=
  guarded reg (processChecks host env reg c params "process remove access is required") fun p =>
    let (file, state) := markEnded env reg.processes p
    let marked := { reg with processes := file }
    if isTerminalState state then
      match rewriteProcesses file p.processId none (env.rewrite 1) with
      | .error errno => .only marked (.ioFailure "failed to remove process" errno)
      | .ok (file, _) =>
        match removeTrees env 0 with
        | some errno =>
          ⟨{ reg with processes := file }, [.removeState p.processId],
            .ioFailure "failed to remove process state" errno⟩
        | none => ⟨{ reg with processes := file }, [.removeState p.processId], .empty⟩
    else .only marked (.refusal .invalidState "process is still live")

/-- Remove processes one after the other, up to the first failure; the flags count the ones that
were there. -/
def removeProcesses (env : Surroundings) : ℕ → List Bytes → Bytes →
    Bytes × List Bytes × List Bool × Option (Bool × Int32)
  | _, [], file => (file, [], [], none)
  | i, processId :: rest, file =>
    match rewriteProcesses file processId none (env.rewrite i) with
    | .error errno => (file, [], [], some (false, errno))
    | .ok (file, found) =>
      match removeTrees env i with
      | some errno => (file, [processId], [], some (true, errno))
      | none =>
        let (file, removed, flags, failure) := removeProcesses env (i + 1) rest file
        (file, processId :: removed, found :: flags, failure)

/-- The processes a cleanup looks at, each with what was observed of it. -/
def cleanupObserved (workspaceId : Option Bytes) : List (ProcessRecord × Bool) :=
  ((processFormat.records reg.processes).filter
    fun p => workspaceId = none || workspaceId = some p.workspaceId).zipIdx.map
    fun (p, i) => (p, isTerminalState (observedState env i p))

def cleanupChecks : Except Refusal (Option Bytes) := do
  let ref ← orRefuse (getOptionalString params (ascii "workspace_id") 128)
    (.refusal .invalidArgument "invalid cleanup request")
  lockState env
  let workspaceId ← scopeOf reg ref
  match workspaceId with
  | some id =>
    require (hasWorkspaceCapability host reg c id capProcessRemove)
      (.refusal .permissionDenied "cleanup access is required")
  | none =>
    require (isManagerOwner host c)
      (.refusal .permissionDenied "manager cleanup requires local owner access")
  return workspaceId

def managerCleanup : Outcome :=
  guarded reg (cleanupChecks host env reg c params) fun workspaceId =>
    let observed := cleanupObserved env reg workspaceId
    let candidates := observed.filter fun (p, ended) => ended && !p.saved
    let (file, removed, flags, failure) :=
      removeProcesses env 0 (candidates.map fun (p, _) => p.processId) reg.processes
    let reply := match failure with
      | some (false, errno) => .ioFailure "failed to remove cleanup process" errno
      | some (true, errno) => .ioFailure "failed to remove cleanup process state" errno
      | none => .success (ascii "\x7b\"removed_count\":" ++ dec (flags.count true) ++
          ascii ",\"skipped_live_count\":" ++ dec (observed.countP fun (_, ended) => !ended) ++
          ascii ",\"skipped_saved_count\":" ++
          dec (observed.countP fun (p, ended) => ended && p.saved) ++
          ascii ",\"failed_count\":0\x7d")
    ⟨{ reg with processes := file }, removed.map Effect.removeState, reply⟩

end Requests

variable {s workspaceId ref file file' : Bytes} {plan : StartPlan} {p q : ProcessRecord}
  {u : ProcessUpdate}

theorem clean_of_visible (h : ∀ b ∈ s, 0x20 ≤ b.toNat) : Clean s := by
  intro b hb
  have hvisible := h b hb
  have hne : ∀ c : UInt8, c.toNat < 0x20 → b ≠ c := by
    rintro c hc rfl
    omega
  simp [isSeparator, hne 0x09 (by decide), hne 0x0a (by decide), hne 0 (by decide)]

theorem visible_escapedByte (b : UInt8) : ∀ c ∈ escapedByte b, 0x20 ≤ c.toNat := by
  unfold escapedByte
  split
  · rename_i e he
    have hvisible : 0x20 ≤ e.toNat := by
      unfold shortEscape at he
      split_ifs at he <;> obtain rfl := Option.some.inj he <;> decide
    rw [forall_mem_cons, forall_mem_singleton]
    exact ⟨by decide, hvisible⟩
  · split_ifs with hcontrol
    · exact visible_unicodeEscape b
    · rw [forall_mem_singleton]
      omega

theorem visible_argumentText (s : Bytes) : ∀ c ∈ argumentText s, 0x20 ≤ c.toNat := by
  rw [argumentText, cons_append, forall_mem_cons, forall_mem_append,
    forall_mem_singleton]
  refine ⟨by decide, fun c hc => ?_, by decide⟩
  obtain ⟨b, -, hb⟩ := mem_flatMap.mp hc
  exact visible_escapedByte b c hb

theorem buildArgvJson_bounds {argv : List Bytes} {text : Bytes}
    (h : buildArgvJson argv = some text) : Clean text ∧ text.length < 16384 := by
  dsimp only [buildArgvJson] at h
  split_ifs at h with hlength
  obtain rfl := Option.some.inj h
  refine ⟨clean_of_visible ?_, by omega⟩
  rw [arrayText, cons_append, forall_mem_cons, forall_mem_append,
    forall_mem_singleton]
  refine ⟨by decide, ?_, by decide⟩
  cases argv with
  | nil => simp [joinComma]
  | cons a argv =>
    rw [map_cons, joinComma_cons, forall_mem_append]
    refine ⟨visible_argumentText a, fun b hb => ?_⟩
    obtain ⟨t, ht, hbt⟩ := mem_flatMap.mp hb
    obtain ⟨arg, -, rfl⟩ := mem_map.mp ht
    rcases mem_cons.mp hbt with rfl | hbt
    · decide
    · exact visible_argumentText arg b hbt

variable {params : Members}

theorem startFields_bounds {q : StartRequest} (h : startFields params = some q) :
    (q.friendlyName.length < 128 ∧ 0 ∉ q.friendlyName) := by
  simp only [startFields, Option.bind_eq_bind, Option.bind_eq_some_iff] at h
  obtain ⟨_, -, name, hname, _, -, _, -, _, -, _, -, _, -, friendlyName, rfl, hq⟩ := h
  obtain rfl := Option.some.inj hq
  exact getOptionalString_bounds (by decide) hname

structure StartPlan.Sound (plan : StartPlan) (reg : Registry) (params : Members) : Prop where
  fields : startFields params = some plan.request
  valid : plan.request.isValid = true
  workspace : findWorkspace reg plan.request.workspaceRef = some plan.workspace
  cwd_clean : Clean plan.cwd
  cwd_length : plan.cwd.length < 4096
  free : friendlyNameTaken reg plan.workspace.id plan.request.friendlyName = false

variable {host : Host} {env : Surroundings} {reg : Registry} {c : Connection}

theorem startChecks_sound (h : startChecks host env reg c params = .ok plan) :
    plan.Sound reg params ∧
      hasWorkspaceCapability host reg c plan.workspace.id capProcessStart = true := by
  simp only [startChecks, bind_eq_ok, orRefuse_eq_ok, lockState_eq_ok, namedWorkspace_eq_ok,
    require_eq_ok, drawId_eq_ok, pure_eq_ok, Option.filter_eq_some_iff, Bool.not_eq_true'] at h
  obtain ⟨q, ⟨hfields, hvalid⟩, argv, -, -, -, workspace, hworkspace, -, hcapability, cwd,
    ⟨hcwd, hclean⟩, -, -, -, hfree, rfl⟩ := h
  obtain ⟨hlength, hzero⟩ := resolveDirectory_bounds hcwd
  exact ⟨⟨hfields, hvalid, hworkspace, clean_of_validateField hclean hzero, hlength, hfree⟩,
    hcapability⟩

theorem StartPlan.Sound.record_valid (h : plan.Sound reg params) (id : RandomId) (exited : Bool)
    (controllerId : FieldText 33) (controlSocket : FieldText 4096) {argvJson : Bytes}
    (hargv : Clean argvJson) (hlength : argvJson.length < 16384) :
    (plan.record id exited controllerId controlSocket argvJson).Valid := by
  obtain ⟨hnameLength, hnameZero⟩ := startFields_bounds h.fields
  have hworkspace := findWorkspace_valid h.workspace
  have hvalid := h.valid
  simp only [StartRequest.isValid, Bool.and_eq_true, decide_eq_true_eq] at hvalid
  obtain ⟨⟨⟨⟨-, -⟩, hname⟩, hmode⟩, hpolicy⟩ := hvalid
  have hmodeBounds : Clean plan.request.mode ∧ plan.request.mode.length < 32 := by
    simp only [mem_cons, not_mem_nil, or_false] at hmode
    rcases hmode with hm | hm | hm <;> rw [hm] <;> decide +kernel
  have hpolicyBounds :
      Clean plan.request.stdinPolicy ∧ plan.request.stdinPolicy.length < 32 := by
    simp only [mem_cons, not_mem_nil, or_false] at hpolicy
    rcases hpolicy with hp | hp <;> rw [hp] <;> decide +kernel
  have hstate : Clean (ascii (if exited then "exited" else "running")) ∧
      (ascii (if exited then "exited" else "running")).length < 32 := by
    cases exited <;> decide +kernel
  refine ⟨?_, id.text_length.trans_lt (by decide), hworkspace.id_length, hnameLength,
    hmodeBounds.2, hstate.2, controllerId.length_lt, controlSocket.length_lt, h.cwd_length,
    hlength, hpolicyBounds.2, hworkspace.name_length, hworkspace.directory_length⟩
  have hfields := hworkspace.clean
  simp only [WorkspaceRecord.fields, forall_mem_cons] at hfields
  obtain ⟨hwsId, hwsName, hwsDirectory, -⟩ := hfields
  simp only [ProcessRecord.fields, ProcessRecord.head, ProcessRecord.tail, cons_append,
    nil_append, forall_mem_cons, not_mem_nil, false_imp_iff, implies_true,
    and_true]
  exact ⟨id.clean_text, hwsId, clean_of_validateField hname hnameZero, hmodeBounds.1, hstate.1,
    controllerId.clean, controlSocket.clean, h.cwd_clean, clean_flagText _, hargv,
    clean_flagText _, hpolicyBounds.1, hwsName, hwsDirectory⟩

/-- What a process is found by from within a workspace. -/
def processKeys (workspaceId : Bytes) (p : ProcessRecord) : List Bytes :=
  if p.workspaceId = workspaceId then [p.processId, p.friendlyName] else [p.processId]

theorem mem_processKeys {key : Bytes} :
    key ∈ processKeys workspaceId p ↔
      key = p.processId ∨ p.workspaceId = workspaceId ∧ key = p.friendlyName := by
  unfold processKeys
  split_ifs with h <;> simp [h]

theorem processMatches_iff (ref workspaceId : Bytes) (p : ProcessRecord) :
    processMatches ref (some workspaceId) p = true ↔ ref ∈ processKeys workspaceId p := by
  simp only [processMatches, Bool.or_eq_true, Bool.and_eq_true, decide_eq_true_eq,
    Option.some.injEq, mem_processKeys]
  constructor
  · rintro (rfl | ⟨rfl, rfl⟩)
    · exact .inl rfl
    · exact .inr ⟨rfl, rfl⟩
  · rintro (rfl | ⟨rfl, rfl⟩)
    · exact .inl rfl
    · exact .inr ⟨rfl, rfl⟩

/-- In every workspace, different processes are found by different references. -/
structure ProcessesOk (file : Bytes) : Prop where
  terminated : Terminated file
  separate : ∀ workspaceId, Separate (processKeys workspaceId) (processFormat.records file)

theorem processesOk_nil : ProcessesOk [] := ⟨.inl rfl, fun _ => separate_nil⟩

theorem ProcessesOk.findProcess_eq (h : ProcessesOk reg.processes)
    (hp : p ∈ processFormat.records reg.processes) (href : ref ∈ processKeys p.workspaceId p) :
    findProcess reg ref (some p.workspaceId) = .ok p := by
  rw [findProcess, (h.separate p.workspaceId).filter_eq hp href (processMatches_iff ref _)]

/-- Two records that share no reference in any workspace. -/
theorem processKeys_disjoint (hid : p.processId ≠ q.processId)
    (hidName : p.processId ≠ q.friendlyName) (hnameId : p.friendlyName ≠ q.processId)
    (hname : p.workspaceId = q.workspaceId → p.friendlyName ≠ q.friendlyName) :
    (processKeys workspaceId p).Disjoint (processKeys workspaceId q) := by
  intro key hp hq
  rw [mem_processKeys] at hp hq
  rcases hp with rfl | ⟨hpw, rfl⟩
  · rcases hq with hq | ⟨-, hq⟩
    · exact hid hq
    · exact hidName hq
  · rcases hq with hq | ⟨hqw, hq⟩
    · exact hnameId hq
    · exact hname (hpw.trans hqw.symm) hq

/-- What it means for two records that they are kept apart everywhere. -/
theorem ne_of_processKeys_disjoint
    (h : ∀ workspaceId, (processKeys workspaceId p).Disjoint (processKeys workspaceId q)) :
    p.processId ≠ q.processId ∧ p.processId ≠ q.friendlyName ∧ p.friendlyName ≠ q.processId ∧
      (p.workspaceId = q.workspaceId → p.friendlyName ≠ q.friendlyName) := by
  refine ⟨fun heq => ?_, fun heq => ?_, fun heq => ?_, fun hw heq => ?_⟩
  · exact h p.workspaceId (mem_processKeys.mpr (.inl rfl)) (mem_processKeys.mpr (.inl heq))
  · exact h q.workspaceId (mem_processKeys.mpr (.inl rfl)) (mem_processKeys.mpr (.inr ⟨rfl, heq⟩))
  · exact h p.workspaceId (mem_processKeys.mpr (.inr ⟨rfl, rfl⟩)) (mem_processKeys.mpr (.inl heq))
  · exact h p.workspaceId (mem_processKeys.mpr (.inr ⟨rfl, rfl⟩))
      (mem_processKeys.mpr (.inr ⟨hw.symm, heq⟩))

theorem processKeys_kept (h : p.Valid) (workspaceId : Bytes) :
    processKeys workspaceId p.kept = processKeys workspaceId p := by
  obtain ⟨-, hid, hws, hname, -⟩ := h.parse_cut
  rw [processKeys, processKeys, hid, hws, hname]

theorem ProcessesOk.append (h : ProcessesOk file) (hvalid : p.Valid)
    (hid : ∀ q ∈ processFormat.records file, q.processId ≠ p.processId ∧
      q.friendlyName ≠ p.processId)
    (hname : ∀ q ∈ processFormat.records file, q.processId ≠ p.friendlyName ∧
      (q.workspaceId = p.workspaceId → q.friendlyName ≠ p.friendlyName)) :
    ProcessesOk (file ++ lineOf p.fields) := by
  refine ⟨terminated_append h.terminated (terminated_lineOf _), fun workspaceId => ?_⟩
  have hrecords : processFormat.records (file ++ lineOf p.fields) =
      processFormat.records file ++ [p.kept] :=
    processFormat_reads.records_append_print h.terminated hvalid
  rw [hrecords]
  refine (h.separate workspaceId).append_singleton fun q hq => ?_
  rw [processKeys_kept hvalid]
  exact processKeys_disjoint (hid q hq).1 (hname q hq).1 (hid q hq).2 (hname q hq).2

theorem ProcessUpdate.apply_valid (h : p.Valid)
    (hstate : ∀ state, u.state = some state → Clean state)
    (hname : ∀ name, u.friendlyName = some name → Clean name) : (u.apply p).Valid := by
  have hclean := h.clean
  simp only [ProcessRecord.fields, ProcessRecord.head, ProcessRecord.tail, cons_append,
    nil_append, forall_mem_cons, not_mem_nil, false_imp_iff, implies_true,
    and_true] at hclean
  obtain ⟨hid, hws, hfriendly, hmode, hst, hcid, hsock, hcwd, -, hargv, -, hpolicy, hwsName,
    hwsDir⟩ := hclean
  have hstateBounds : Clean (u.apply p).state ∧ (u.apply p).state.length < 32 := by
    cases hs : u.state with
    | none => simpa [apply, hs] using ⟨hst, h.state_length⟩
    | some state =>
      simpa [apply, hs] using ⟨(hstate state hs).clip 32, clip_length_lt (by decide) state⟩
  have hnameBounds : Clean (u.apply p).friendlyName ∧ (u.apply p).friendlyName.length < 128 := by
    cases hn : u.friendlyName with
    | none => simpa [apply, hn] using ⟨hfriendly, h.friendlyName_length⟩
    | some name =>
      simpa [apply, hn] using ⟨(hname name hn).clip 128, clip_length_lt (by decide) name⟩
  refine ⟨?_, h.processId_length, h.workspaceId_length, hnameBounds.2, h.mode_length,
    hstateBounds.2, h.controllerId_length, h.controlSocket_length, h.cwd_length,
    h.argvJson_length, h.stdinPolicy_length, h.workspaceName_length, h.workspaceDirectory_length⟩
  simp only [ProcessRecord.fields, ProcessRecord.head, ProcessRecord.tail, cons_append,
    nil_append, forall_mem_cons, not_mem_nil, false_imp_iff, implies_true,
    and_true]
  exact ⟨hid, hws, hnameBounds.1, hmode, hstateBounds.1, hcid, hsock, hcwd, clean_flagText _,
    hargv, clean_flagText _, hpolicy, hwsName, hwsDir⟩

theorem valid_changeProcess (file processId : Bytes) (update : Option ProcessUpdate)
    (hstate : ∀ u state, update = some u → u.state = some state → Clean state)
    (hname : ∀ u name, update = some u → u.friendlyName = some name → Clean name) :
    ∀ q ∈ (processFormat.records file).filterMap (changeProcess processId update), q.Valid := by
  intro q hq
  obtain ⟨p, hp, hchange⟩ := mem_filterMap.mp hq
  have hvalid := valid_of_mem_processes hp
  unfold changeProcess at hchange
  split_ifs at hchange with hid
  · obtain ⟨u, rfl, rfl⟩ := Option.map_eq_some_iff.mp hchange
    exact u.apply_valid hvalid (fun s hs => hstate u s rfl hs) fun n hn => hname u n rfl hn
  · obtain rfl := Option.some.inj hchange
    exact hvalid

theorem filterMap_changeProcess_none (processId : Bytes) (ps : List ProcessRecord) :
    ps.filterMap (changeProcess processId none) = ps.filter (·.processId ≠ processId) := by
  rw [← filterMap_eq_filter]
  apply filterMap_congr
  intro p _
  by_cases hp : p.processId = processId <;> simp [changeProcess, hp, Option.guard]

theorem filterMap_changeProcess_some (processId : Bytes) (u : ProcessUpdate)
    (ps : List ProcessRecord) :
    ps.filterMap (changeProcess processId (some u)) =
      ps.map fun p => if p.processId = processId then u.apply p else p := by
  rw [← filterMap_eq_map']
  apply filterMap_congr
  intro p _
  by_cases hp : p.processId = processId <;> simp [changeProcess, hp]

theorem ProcessesOk.remove (h : ProcessesOk file) (processId : Bytes) :
    ProcessesOk (processFormat.rewrite (changeProcess processId none) file) := by
  have hvalid := valid_changeProcess file processId none (by simp) (by simp)
  refine ⟨processFormat_reads.terminated_rewrite hvalid, fun workspaceId => ?_⟩
  rw [processFormat_reads.records_rewrite hvalid, filterMap_changeProcess_none]
  refine ((h.separate workspaceId).sublist filter_sublist).map fun p hp => ?_
  exact processKeys_kept (valid_of_mem_processes (mem_of_mem_filter hp)) workspaceId

/-- An update keeps processes apart when the name it gives is not another one's. -/
theorem ProcessesOk.update (h : ProcessesOk file) (processId : Bytes)
    (hstate : ∀ state, u.state = some state → Clean state)
    (hname : ∀ name, u.friendlyName = some name → Clean name)
    (hfree : ∀ name, u.friendlyName = some name → ∀ p ∈ processFormat.records file,
      p.processId = processId → ∀ q ∈ processFormat.records file, q.processId ≠ processId →
      clip 128 name ≠ q.processId ∧ (p.workspaceId = q.workspaceId →
      clip 128 name ≠ q.friendlyName)) :
    ProcessesOk (processFormat.rewrite (changeProcess processId (some u)) file) := by
  have hvalid := valid_changeProcess file processId (some u)
    (fun v s hv => Option.some.inj hv ▸ hstate s) (fun v n hv => Option.some.inj hv ▸ hname n)
  refine ⟨processFormat_reads.terminated_rewrite hvalid, fun workspaceId => ?_⟩
  rw [processFormat_reads.records_rewrite hvalid]
  refine Separate.map ?_ fun p hp => processKeys_kept (hvalid p hp) workspaceId
  rw [filterMap_changeProcess_some]
  apply (h.separate workspaceId).map_ite
  · intro p _ q _ hp hq hdisjoint
    exact hdisjoint (mem_processKeys.mpr (.inl rfl)) (mem_processKeys.mpr (.inl (hp.trans hq.symm)))
  · intro p hp q hq hpid hqid
    have hne : p ≠ q := by
      rintro rfl
      exact hqid hpid
    obtain ⟨hid, hidName, hnameId, hnames⟩ :=
      ne_of_processKeys_disjoint fun w => (h.separate w).disjoint hp hq hne
    cases hn : u.friendlyName with
    | none =>
      exact processKeys_disjoint hid hidName (by simpa [ProcessUpdate.apply, hn] using hnameId)
        (by simpa [ProcessUpdate.apply, hn] using hnames)
    | some name =>
      obtain ⟨hfreeId, hfreeName⟩ := hfree name hn p hp hpid q hq hqid
      exact processKeys_disjoint hid hidName (by simpa [ProcessUpdate.apply, hn] using hfreeId)
        (by simpa [ProcessUpdate.apply, hn] using hfreeName)

variable {outcome : Option Int32}

theorem rewriteProcesses_ok {processId : Bytes} {update : Option ProcessUpdate} {found : Bool}
    (h : rewriteProcesses file processId update outcome = .ok (file', found)) :
    file' = processFormat.rewrite (changeProcess processId update) file := by
  cases outcome with
  | some errno => simp [rewriteProcesses] at h
  | none => exact (Prod.mk.inj (Except.ok.inj h)).1.symm

theorem namedProcess_mem {workspaceId : Option Bytes} (h : namedProcess reg ref workspaceId =
    .ok p) :
    findProcess reg ref workspaceId = .ok p ∧ p ∈ processFormat.records reg.processes := by
  have hfind : findProcess reg ref workspaceId = .ok p := by
    unfold namedProcess at h
    split at h
    · rename_i q hq
      rw [hq, Except.ok.inj h]
    · simp at h
  refine ⟨hfind, ?_⟩
  unfold findProcess at hfind
  split at hfind
  · simp at hfind
  · rename_i q hq
    obtain rfl := Except.ok.inj hfind
    exact mem_of_mem_filter (hq ▸ mem_singleton_self q)
  · simp at hfind

/-- A start adds the record of the process it started, or leaves the records unless its append
stops part-way. -/
theorem processStart_processes (host : Host) (env : Surroundings) (reg : Registry)
    (c : Connection) (params : Members) :
    (env.AppendsWhole → (processStart host env reg c params).reg.processes = reg.processes) ∨
    ∃ (plan : StartPlan) (p : ProcessRecord), plan.Sound reg params ∧ p.Valid ∧
      p.processId = env.id.text ∧ p.workspaceId = plan.workspace.id ∧
      p.friendlyName = plan.request.friendlyName ∧
      (∃ exited controllerId controlSocket, env.launch = .ready exited controllerId controlSocket ∧
        p.state = ascii (if exited then "exited" else "running")) ∧
      (processStart host env reg c params).reg.processes = reg.processes ++ lineOf p.fields := by
  unfold processStart
  rcases guarded_cases reg (startChecks host env reg c params) (launchProcess host env reg) with
    ⟨r, -, heq⟩ | ⟨plan, hchecks, heq⟩
  · rw [heq]
    exact .inl fun _ => rfl
  · have hsound := (startChecks_sound hchecks).1
    rw [heq]
    unfold launchProcess
    cases hlaunch : env.launch with
    | pathTooLong => exact .inl fun _ => rfl
    | pathsFailed errno => exact .inl fun _ => rfl
    | historyFailed errno => exact .inl fun _ => rfl
    | failed errno => exact .inl fun _ => rfl
    | ready exited controllerId controlSocket =>
      cases hargv : buildArgvJson plan.argv with
      | none => exact .inl fun _ => rfl
      | some argvJson =>
        cases controllerId with
        | error errno => exact .inl fun _ => rfl
        | ok controllerId =>
          obtain ⟨hclean, hlength⟩ := buildArgvJson_bounds hargv
          dsimp only
          rcases happend : appendProcess reg.processes
              (plan.record env.id exited controllerId controlSocket argvJson) (env.append 0) with
            ⟨file, _ | errno⟩
          · exact .inr ⟨plan, plan.record env.id exited controllerId controlSocket argvJson, hsound,
              hsound.record_valid env.id exited controllerId controlSocket hclean hlength, rfl, rfl,
              rfl, ⟨_, _, _, rfl, rfl⟩, (appendBounded_ok happend).2⟩
          · exact .inl fun hwhole => hwhole.file_eq happend

theorem processStart_workspaces (host : Host) (env : Surroundings) (reg : Registry)
    (c : Connection) (params : Members) :
    (processStart host env reg c params).reg.workspaces = reg.workspaces := by
  unfold processStart
  rcases guarded_cases reg (startChecks host env reg c params) (launchProcess host env reg) with
    ⟨r, -, heq⟩ | ⟨plan, -, heq⟩
  · rw [heq]
    rfl
  · rw [heq]
    unfold launchProcess
    split
    · rfl
    · rfl
    · rfl
    · rfl
    · split
      · rfl
      · split
        · rfl
        · dsimp only
          split <;> rfl

theorem applyUpdate_processes (host : Host) (env : Surroundings) (reg : Registry)
    (p : ProcessRecord) (u : ProcessUpdate) :
    (applyUpdate host env reg p u).reg.processes = reg.processes ∨
    (applyUpdate host env reg p u).reg.processes =
      processFormat.rewrite (changeProcess p.processId (some u)) reg.processes := by
  unfold applyUpdate
  split
  · exact .inl rfl
  · rename_i file hrewrite
    exact .inr (rewriteProcesses_ok hrewrite)
  · rename_i file hrewrite
    exact .inr (rewriteProcesses_ok hrewrite)

theorem updateFields_bounds {q : UpdateRequest} {name : Bytes} (h : updateFields params = some q)
    (hname : q.friendlyName = some name) : Clean name ∧ name.length < 128 := by
  simp only [updateFields, Option.bind_eq_bind, Option.bind_eq_some_iff] at h
  obtain ⟨_, -, _, -, friendlyName, hfriendly, _, -, hq⟩ := h
  split_ifs at hq with hvalid
  obtain rfl := Option.some.inj hq
  obtain rfl : friendlyName = some name := hname
  obtain ⟨hlength, hzero⟩ := getOptionalString_bounds (by decide) hfriendly
  exact ⟨clean_of_validateField (by simpa using hvalid) hzero, hlength⟩

/-- What an update has established. -/
theorem updateChecks_sound {q : UpdateRequest} (h : updateChecks host env reg c params = .ok (q,
    p)) :
    updateFields params = some q ∧
      (∃ workspaceId, scopeOf reg q.workspaceRef = .ok workspaceId ∧
        findProcess reg q.processRef workspaceId = .ok p) ∧
      p ∈ processFormat.records reg.processes ∧
      hasWorkspaceCapability host reg c p.workspaceId capProcessSignal = true ∧
      ∀ name, q.friendlyName = some name →
        friendlyNameConflicts reg p.workspaceId p.processId name = false := by
  simp only [updateChecks, bind_eq_ok, orRefuse_eq_ok, lockState_eq_ok, require_eq_ok, pure_eq_ok,
    Prod.mk.injEq, Bool.not_eq_true'] at h
  obtain ⟨q', hfields, -, -, workspaceId, hscope, -, -, p', hp, -, hcapability, -, hconflict, rfl,
    rfl⟩ := h
  obtain ⟨hfind, hmem⟩ := namedProcess_mem hp
  refine ⟨hfields, ⟨workspaceId, hscope, hfind⟩, hmem, hcapability, fun name hname => ?_⟩
  simpa [hname] using hconflict

theorem processChecks_sound {denied : String}
    (h : processChecks host env reg c params denied = .ok p) :
    p ∈ processFormat.records reg.processes ∧
      hasWorkspaceCapability host reg c p.workspaceId capProcessRemove = true := by
  simp only [processChecks, bind_eq_ok, orRefuse_eq_ok, lockState_eq_ok, require_eq_ok,
    pure_eq_ok] at h
  obtain ⟨ref, -, -, -, p', hp, -, hcapability, rfl⟩ := h
  exact ⟨(namedProcess_mem hp).2, hcapability⟩

theorem clean_observedState (env : Surroundings) (i : ℕ) (h : p.Valid) :
    Clean (observedState env i p) := by
  rw [observedState, controllerStatusState]
  by_cases hterminal : isTerminalState p.state = true
  · rw [if_pos hterminal]
    exact h.clean_head _ (by simp [ProcessRecord.head])
  · rw [if_neg hterminal]
    cases env.status i p with
    | none =>
      dsimp only [Option.map_none]
      split_ifs <;> decide +kernel
    | some state =>
      dsimp only [Option.map_some]
      split_ifs
      · decide +kernel
      · exact state.clean

/-- A process file after removals and after changes that give no name and record only some
states. -/
inductive Rewritten (S : Bytes → Prop) (start : Bytes) : Bytes → Prop
  | refl : Rewritten S start start
  | change {file : Bytes} (h : Rewritten S start file) (processId : Bytes) {u : ProcessUpdate}
      (hname : u.friendlyName = none) (hstate : ∀ state ∈ u.state, Clean state ∧ S state) :
      Rewritten S start (processFormat.rewrite (changeProcess processId (some u)) file)
  | remove {file : Bytes} (h : Rewritten S start file) (processId : Bytes) :
      Rewritten S start (processFormat.rewrite (changeProcess processId none) file)

section
variable {S : Bytes → Prop} {start : Bytes}

theorem Rewritten.processesOk (h : Rewritten S start file) (hok : ProcessesOk start) :
    ProcessesOk file := by
  induction h with
  | refl => exact hok
  | change _ processId hname hstate ih =>
    exact ih.update processId (fun state hs => (hstate state hs).1) (by simp [hname])
      (by simp [hname])
  | remove _ processId ih => exact ih.remove processId

theorem Rewritten.recordState (h : Rewritten S start file) (processId : Bytes) {state : Bytes}
    (hclean : Clean state) (hstate : S state) :
    Rewritten S start (processFormat.rewrite
      (changeProcess processId (some { state := some state })) file) :=
  h.change processId rfl fun _ hs => Option.some.inj hs ▸ ⟨hclean, hstate⟩

theorem Rewritten.markEnded (h : Rewritten S start file) (env : Surroundings) (hp : p.Valid)
    (hstate : S (observedState env 0 p)) : Rewritten S start (markEnded env file p).1 := by
  unfold Manager.markEnded
  dsimp only
  split_ifs
  · split
    · exact h
    · rename_i file' found hrewrite
      rw [rewriteProcesses_ok hrewrite]
      exact h.recordState p.processId (clean_observedState env 0 hp) hstate
  · exact h

theorem Rewritten.removeProcesses (h : Rewritten S start file) (env : Surroundings) (i : ℕ)
    (processIds : List Bytes) : Rewritten S start (removeProcesses env i processIds file).1 := by
  induction processIds generalizing i file with
  | nil => exact h
  | cons processId rest ih =>
    unfold Manager.removeProcesses
    split
    · exact h
    · rename_i file' found hrewrite
      have hremoved : Rewritten S start file' :=
        rewriteProcesses_ok hrewrite ▸ h.remove processId
      split
      · exact hremoved
      · exact ih hremoved (i + 1)

end

section
variable (host : Host) (env : Surroundings) {reg : Registry} (c : Connection) (params : Members)

theorem ProcessesOk.processStart (hok : ProcessesOk reg.processes) (hwhole : env.AppendsWhole)
    (hfresh : ∀ p ∈ processFormat.records reg.processes,
      p.processId ≠ env.id.text ∧ p.friendlyName ≠ env.id.text)
    (hnames : ∀ q, startFields params = some q →
      ∀ r ∈ processFormat.records reg.processes, r.processId ≠ q.friendlyName) :
    ProcessesOk (processStart host env reg c params).reg.processes := by
  rcases processStart_processes host env reg c params with
    hsame | ⟨plan, p, hsound, hvalid, hid, hws, hname, -, hfile⟩
  · exact hsame hwhole ▸ hok
  · refine hfile ▸ hok.append hvalid (fun q hq => hid ▸ hfresh q hq) fun q hq => ?_
    rw [hname]
    refine ⟨hnames plan.request hsound.fields q hq, fun hqw hqname => ?_⟩
    have hfree := hsound.free
    simp only [friendlyNameTaken, any_eq_false, Bool.and_eq_true, decide_eq_true_eq] at hfree
    exact hfree q hq ⟨hqw.trans hws, hqname⟩

theorem processUpdate_processes (reg : Registry) :
    (processUpdate host env reg c params).reg.processes = reg.processes ∨
      ∃ q p, updateChecks host env reg c params = .ok (q, p) ∧
        (processUpdate host env reg c params).reg.processes =
          processFormat.rewrite (changeProcess p.processId
            (some { friendlyName := q.friendlyName, restart := q.restart })) reg.processes := by
  unfold processUpdate guarded
  split
  · exact .inl rfl
  · rename_i o hchecks
    obtain ⟨q, p⟩ := o
    exact (applyUpdate_processes host env reg p _).imp_right fun hfile => ⟨q, p, hchecks, hfile⟩

theorem ProcessesOk.processUpdate (hok : ProcessesOk reg.processes)
    (hnames : ∀ q name workspaceId p, updateFields params = some q →
      q.friendlyName = some name → scopeOf reg q.workspaceRef = .ok workspaceId →
      findProcess reg q.processRef workspaceId = .ok p →
      ∀ r ∈ processFormat.records reg.processes, r.processId = name → r.processId = p.processId) :
    ProcessesOk (processUpdate host env reg c params).reg.processes := by
  rcases processUpdate_processes host env c params reg with hsame | ⟨q, p, hchecks, hfile⟩
  · exact hsame ▸ hok
  obtain ⟨hfields, ⟨workspaceId, hscope, hfind⟩, hp, -, hconflict⟩ := updateChecks_sound hchecks
  refine hfile ▸ hok.update p.processId (by simp)
    (fun name hn => (updateFields_bounds hfields hn).1) fun name hn p' hp' hpid r hr hrid => ?_
  have hname : q.friendlyName = some name := hn
  rw [clip_eq_self (updateFields_bounds hfields hname).2]
  -- the id tells the process that is updated
  obtain rfl : p' = p := by
    by_contra hne
    exact (ne_of_processKeys_disjoint fun w => (hok.separate w).disjoint hp' hp hne).1 hpid
  refine ⟨fun heqId => ?_, fun hw heqName => ?_⟩
  · exact hrid (hnames q name workspaceId p' hfields hname hscope hfind r hr heqId.symm)
  · have hfree := hconflict name hname
    simp only [friendlyNameConflicts, any_eq_false, Bool.and_eq_true,
      decide_eq_true_eq] at hfree
    exact hfree r hr ⟨⟨hw.symm, hrid⟩, heqName.symm⟩

theorem rewritten_processSave (S : Bytes → Prop) (reg : Registry) (saved : Bool) :
    Rewritten S reg.processes (processSave host env reg c params saved).reg.processes := by
  unfold processSave
  rcases guarded_cases reg (processChecks host env reg c params "process save access is required")
      (fun p => applyUpdate host env reg p { saved := some saved }) with
    ⟨r, -, heq⟩ | ⟨p, -, heq⟩
  · exact heq ▸ .refl
  · rw [heq]
    rcases applyUpdate_processes host env reg p { saved := some saved } with hsame | hfile
    · exact hsame ▸ .refl
    · exact hfile ▸ Rewritten.refl.change p.processId rfl (by simp)

theorem rewritten_processRemove {S : Bytes → Prop} (reg : Registry)
    (hstate : ∀ p, processChecks host env reg c params "process remove access is required" = .ok p →
      S (observedState env 0 p)) :
    Rewritten S reg.processes (processRemove host env reg c params).reg.processes := by
  unfold processRemove guarded
  split
  · exact .refl
  · rename_i p hchecks
    have hmarked := (@Rewritten.refl S reg.processes).markEnded env
      (valid_of_mem_processes (processChecks_sound hchecks).1) (hstate p hchecks)
    dsimp only
    split_ifs
    · split
      · exact hmarked
      · rename_i file found hrewrite
        have hremoved : Rewritten S reg.processes file :=
          rewriteProcesses_ok hrewrite ▸ hmarked.remove p.processId
        split
        · exact hremoved
        · exact hremoved
    · exact hmarked

theorem rewritten_managerCleanup (S : Bytes → Prop) (reg : Registry) :
    Rewritten S reg.processes (managerCleanup host env reg c params).reg.processes := by
  unfold managerCleanup guarded
  split
  · exact .refl
  · exact Rewritten.refl.removeProcesses env 0 _

end

inductive ProcessMethod
  | start
  | update
  | save
  | unsave
  | remove
  | cleanup
deriving DecidableEq

/-- A request about processes with everything it depends on but their file. -/
structure ProcessCall where
  method : ProcessMethod
  params : Members
  connection : Connection
  env : Surroundings
  around : Registry

namespace ProcessCall
variable (host : Host) (call : ProcessCall)

/-- The registry at the time of the request. -/
def seen (reg : Registry) : Registry := { call.around with processes := reg.processes }

def handle (reg : Registry) : Outcome :=
  match call.method with
  | .start => processStart host call.env (call.seen reg) call.connection call.params
  | .update => processUpdate host call.env (call.seen reg) call.connection call.params
  | .save => processSave host call.env (call.seen reg) call.connection call.params true
  | .unsave => processSave host call.env (call.seen reg) call.connection call.params false
  | .remove => processRemove host call.env (call.seen reg) call.connection call.params
  | .cleanup => managerCleanup host call.env (call.seen reg) call.connection call.params

/-- The id that is drawn for a new process is in no record yet. -/
def Fresh (reg : Registry) : Prop :=
  ∀ p ∈ processFormat.records reg.processes,
    p.processId ≠ call.env.id.text ∧ p.friendlyName ≠ call.env.id.text

/-- The friendly name a request gives is not the id of another process. -/
def NamesNoProcess (reg : Registry) : Prop :=
  match call.method with
  | .start => ∀ q, startFields call.params = some q →
      ∀ r ∈ processFormat.records reg.processes, r.processId ≠ q.friendlyName
  | .update => ∀ q name workspaceId p, updateFields call.params = some q →
      q.friendlyName = some name → scopeOf (call.seen reg) q.workspaceRef = .ok workspaceId →
      findProcess (call.seen reg) q.processRef workspaceId = .ok p →
      ∀ r ∈ processFormat.records reg.processes, r.processId = name → r.processId = p.processId
  | _ => True

theorem handle_ok (hok : ProcessesOk reg.processes) (hwhole : call.env.AppendsWhole)
    (hfresh : call.Fresh reg) (hnames : call.NamesNoProcess reg) : ProcessesOk (call.handle host reg).reg.processes := by
  have hseen : ProcessesOk (call.seen reg).processes := hok
  obtain ⟨method, params, c, env, around⟩ := call
  cases method with
  | start => exact hseen.processStart host env c params hwhole hfresh hnames
  | update => exact hseen.processUpdate host env c params hnames
  | save => exact (rewritten_processSave host env c params (fun _ => True) _ true).processesOk hseen
  | unsave =>
    exact (rewritten_processSave host env c params (fun _ => True) _ false).processesOk hseen
  | remove =>
    exact (rewritten_processRemove (S := fun _ => True) host env c params _
      fun _ _ => trivial).processesOk hseen
  | cleanup => exact (rewritten_managerCleanup host env c params (fun _ => True) _).processesOk hseen

end ProcessCall

/-- The registries that requests about processes lead to from one without processes, when all of
them meet a condition. -/
inductive ProcessRun (host : Host) (Meets : ProcessCall → Registry → Prop) : Registry → Prop
  | init {reg : Registry} (h : reg.processes = []) : ProcessRun host Meets reg
  | step {reg : Registry} (call : ProcessCall) (h : ProcessRun host Meets reg)
      (hmeets : Meets call reg) : ProcessRun host Meets (call.handle host reg).reg

def RandomId.repeated (b : UInt8) : RandomId := ⟨List.replicate 16 b, rfl⟩

theorem clean_c : Clean (ascii "c") := by
  decide +kernel

theorem clean_s : Clean (ascii "/s") := by
  decide +kernel

def sampleController : FieldText 33 := ⟨ascii "c", clean_c, by decide⟩

def sampleSocket : FieldText 4096 := ⟨ascii "/s", clean_s, by decide⟩

def Surroundings.starting (id : RandomId) : Surroundings :=
  { Surroundings.calm with
    id := id
    launch := .ready false (.ok sampleController) sampleSocket }

/-- The owner starts a shell in the only workspace. -/
def startShell (id : RandomId) (name : Bytes) : ProcessCall where
  method := .start
  params := [(ascii "workspace_id", .str (ascii "w")), (ascii "friendly_name", .str name),
    (ascii "mode", .str (ascii "stream")), (ascii "argv", .arr [.str (ascii "sh")])]
  connection := .owner
  env := .starting id
  around := { Registry.empty with workspaces := lineOf [ascii "w", ascii "n", ascii "/"] }

def shellRecord (id : RandomId) (name : Bytes) : ProcessRecord where
  processId := id.text
  workspaceId := ascii "w"
  friendlyName := name
  mode := ascii "stream"
  state := ascii "running"
  controllerId := ascii "c"
  controlSocket := ascii "/s"
  cwd := ascii "/"
  saved := false
  argvJson := ascii "[\"sh\"]"
  restart := false
  stdinPolicy := ascii "open"
  workspaceName := ascii "n"
  workspaceDirectory := ascii "/"

end Cubicle.Manager
