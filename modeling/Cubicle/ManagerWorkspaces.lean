import Cubicle.ManagerKeys
import Cubicle.ManagerProcesses

/-!
# The workspace registry

Workspaces are found by their id or by their name, in one scan. Requests create, rename and delete
them. After any history of these the file is what the requests asked for, byte for byte, as long as
no line is longer than the buffer it is read through.
-/

namespace Cubicle.Manager
open ByteText CStrings RecordFiles JsonText JsonEncoding RpcEnvelope KeyedRecords List
open Controller (EINVAL ENOSPC ENAMETOOLONG)

/-- `append_workspace_record_with_id`. -/
def appendWorkspace (file : Bytes) (w : WorkspaceRecord) (outcome : Option AppendFailure) :
    Bytes × Option Int32 :=
  appendBounded 4352 ENAMETOOLONG file (lineOf w.fields) outcome

/-- What becomes of a record: a new name, or none for its removal. -/
def changeWorkspace (id : Bytes) (newName : Option Bytes) (w : WorkspaceRecord) :
    Option WorkspaceRecord :=
  if w.id = id then newName.map fun name => { w with name := clip 128 name } else some w

/-- `rewrite_workspace_records`, for a workspace that is there. -/
def rewriteWorkspaces (file id : Bytes) (newName : Option Bytes) : Bytes :=
  workspaceFormat.rewrite (changeWorkspace id newName) file

def workspaceInfoJson (host : Host) (reg : Registry) (w : WorkspaceRecord) (size : ℕ) :
    Option Bytes := do
  let name ← jsonEscape 256 w.name
  let directory ← jsonEscape 8192 w.directory
  let processes := (processFormat.records reg.processes).filter (·.workspaceId = w.id)
  let text := ascii "\x7b\"manager_id\":\"" ++ host.managerId ++ ascii "\",\"id\":\"" ++ w.id ++
    ascii "\",\"name\":\"" ++ name ++ ascii "\",\"directory\":\"" ++ directory ++
    ascii "\",\"created_at_ms\":0,\"updated_at_ms\":0,\"process_count\":" ++
    dec processes.length ++ ascii ",\"running_process_count\":" ++
    dec (processes.countP (·.state = ascii "running")) ++ ascii "\x7d"
  if size ≤ text.length then none else some text

structure CreateRequest where
  name : Bytes
  directory : Option Bytes
  ownerLabel : Bytes
deriving DecidableEq

def createFields (params : Members) : Option CreateRequest := do
  let name ← getRequiredString params (ascii "name") 128
  let directory ← getOptionalString params (ascii "directory") 4096
  let ownerLabel ← getOptionalString params (ascii "initial_owner_label") 128
  if validateField name then
    some { name, directory, ownerLabel := ownerLabel.getD (ascii "owner") }
  else none

section Requests
variable (host : Host) (env : Surroundings) (reg : Registry) (c : Connection) (params : Members)

/-- A workspace creation up to the line in the registry. The line is printed to a buffer of the
size `append_workspace_record_with_id` has. -/
def createChecks : Except Refusal (CreateRequest × WorkspaceRecord) := do
  let q ← orRefuse (createFields params) (.refusal .invalidArgument "invalid workspace name")
  let directory ← orRefuse ((resolveDirectory env (q.directory.getD [])).filter validateField)
    (.refusal .invalidArgument "invalid workspace directory")
  require (isManagerOwner host c)
    (.refusal .permissionDenied "workspace creation requires local owner access")
  lockState env
  require (findWorkspace reg q.name).isNone
    (.refusal .alreadyExists "workspace already exists")
  drawId env "failed to allocate workspace id"
  return (q, ⟨env.id.text, q.name, directory⟩)

/-- The key of the client that created a workspace. -/
def appendOwnerKey (host : Host) (env : Surroundings) (file : Bytes) (c : Connection)
    (w : WorkspaceRecord) (label : Bytes) : Bytes × Option Int32 :=
  if c.authenticated && c.clientPublicKeyHex ≠ [] then
    match buildKeyRecord host.crypto w.id c.clientPublicKeyHex label roleOwnerCapabilities env.now
      with
    | none => (file, some EINVAL)
    | some key => appendKeyRecord file key (env.append 1)
  else (file, none)

def workspaceCreate : Outcome :=
  guarded reg (createChecks host env reg c params) fun (q, w) =>
    match appendWorkspace reg.workspaces w (env.append 0) with
    | (file, some errno) =>
      .only { reg with workspaces := file } (.ioFailure "failed to persist workspace" errno)
    | (file, none) =>
      let (keys, failure) := appendOwnerKey host env reg.workspaceKeys c w q.ownerLabel
      let reg := { reg with workspaces := file, workspaceKeys := keys }
      match failure with
      | some errno => .only reg (.ioFailure "failed to persist workspace owner key" errno)
      | none =>
        match workspaceInfoJson host reg w 1024 with
        | none => .only reg (.failure .internal (ascii "failed to encode workspace") false ENOSPC)
        | some info => .only reg (.success info)

def renameFields : Option (Bytes × Bytes) := do
  let ref ← getRequiredString params (ascii "workspace_id") 128
  let newName ← getRequiredString params (ascii "new_name") 128
  if validateField newName then some (ref, newName) else none

/-- A rename up to the new file. -/
def renameChecks : Except Refusal (WorkspaceRecord × Bytes) := do
  let (ref, newName) ← orRefuse (renameFields params)
    (.refusal .invalidArgument "invalid workspace rename request")
  lockState env
  let w ← namedWorkspace reg ref
  require (hasWorkspaceCapability host reg c w.id capWorkspaceRename)
    (.refusal .permissionDenied "workspace rename access is required")
  require ((findWorkspace reg newName).all fun existing => existing.id = w.id)
    (.refusal .alreadyExists "workspace name already exists")
  match env.rewrite 0 with
  | some errno => .error (.ioFailure "failed to rename workspace" errno)
  | none => return (w, newName)

def workspaceRename : Outcome :=
  guarded reg (renameChecks host env reg c params) fun (w, newName) =>
    .only { reg with workspaces := rewriteWorkspaces reg.workspaces w.id (some newName) } .empty

structure LifecyclePlan where
  workspace : WorkspaceRecord
  stopRunning : Bool
  removeRetained : Bool

/-- The checks of `workspace.stop` and `workspace.delete`. -/
def lifecycleChecks (delete : Bool) : Except Refusal LifecyclePlan := do
  let (ref, stopRunning, removeRetained) ← orRefuse (do
      let ref ← getRequiredString params (ascii "workspace_id") 128
      let stopRunning ← getOptionalBool params (ascii "stop_running_processes")
      let removeRetained ← getOptionalBool params (ascii "remove_retained_processes")
      return (ref, stopRunning, removeRetained))
    (.refusal .invalidArgument "invalid workspace lifecycle request")
  lockState env
  let w ← namedWorkspace reg ref
  let capability := if delete then capWorkspaceDelete else capWorkspaceStop
  require (hasWorkspaceCapability host reg c w.id capability)
    (.refusal .permissionDenied "workspace lifecycle access is required")
  return ⟨w, stopRunning.getD false, removeRetained.getD false⟩

/-- The state a stop or delete request goes by: without an answer or an exit, the recorded one. -/
def lifecycleState (i : ℕ) (p : ProcessRecord) : Bytes :=
  if isTerminalState p.state then p.state
  else match controllerStatusState env i p with
    | some state => state
    | none => if env.hasExit i p.processId then ascii "completed" else p.state

def workspaceProcesses (w : WorkspaceRecord) : List ProcessRecord :=
  (processFormat.records reg.processes).filter (·.workspaceId = w.id)

def liveProcesses (w : WorkspaceRecord) : List ProcessRecord :=
  ((workspaceProcesses reg w).zipIdx.filter
    fun (p, i) => !isTerminalState (lifecycleState env i p)).map Prod.fst

/-- What stands in the way after the processes were told to end. -/
def lifecycleVerdict (plan : LifecyclePlan) (delete : Bool) : Except Refusal Unit := do
  let live := liveProcesses env reg plan.workspace
  if !delete || plan.stopRunning then
    match (live.filterMap env.terminate).getLast? with
    | some errno =>
      .error ⟨.controllerUnavailable, ascii "failed to stop workspace process", true, errno⟩
    | none => pure ()
  require (!(delete && live ≠ [] && !plan.stopRunning))
    (.refusal .invalidState "workspace has live processes")
  match delete, env.rewrite 0 with
  | true, some errno => .error (.ioFailure "failed to delete workspace" errno)
  | _, _ => pure ()

/-- The end of a deletion, with the processes of the workspace. -/
def deleteWorkspace (plan : LifecyclePlan) (effects : List Effect) : Outcome :=
  let ids := if plan.removeRetained then
      ((workspaceProcesses reg plan.workspace).take 256).map (·.processId) else []
  let (file, removed, _, failure) := removeProcesses env 1 ids reg.processes
  let reg := { reg with
    workspaces := rewriteWorkspaces reg.workspaces plan.workspace.id none
    processes := file }
  let reply := match failure with
    | some (false, errno) => .ioFailure "failed to delete workspace processes" errno
    | some (true, errno) => .ioFailure "failed to delete controller state" errno
    | none => .empty
  ⟨reg, effects ++ removed.map Effect.removeState, reply⟩

/-- `workspace.stop` and `workspace.delete`. -/
def workspaceLifecycle (delete : Bool) : Outcome :=
  guarded reg (lifecycleChecks host env reg c params delete) fun plan =>
    let effects := if !delete || plan.stopRunning then
      (liveProcesses env reg plan.workspace).map Effect.terminate else []
    match lifecycleVerdict env reg plan delete with
    | .error r => ⟨reg, effects, r.reply⟩
    | .ok () =>
      if delete then deleteWorkspace env reg plan effects else ⟨reg, effects, .empty⟩

def workspaceKeys (w : WorkspaceRecord) : List Bytes := [w.id, w.name]

end Requests

variable {w : WorkspaceRecord} {ref file newName : Bytes} {params : Members} {q : CreateRequest}
  {env : Surroundings} {c : Connection} {plan : LifecyclePlan} {ws : List WorkspaceRecord}

theorem mem_workspaceKeys {key : Bytes} : key ∈ workspaceKeys w ↔ key = w.id ∨ key = w.name := by
  simp [workspaceKeys]

theorem workspaceKeys_disjoint {v : WorkspaceRecord} :
    (workspaceKeys v).Disjoint (workspaceKeys w) ↔
      v.id ≠ w.id ∧ v.id ≠ w.name ∧ v.name ≠ w.id ∧ v.name ≠ w.name := by
  simp only [List.Disjoint, mem_workspaceKeys]
  constructor
  · intro h
    exact ⟨fun heq => h (.inl rfl) (.inl heq), fun heq => h (.inl rfl) (.inr heq),
      fun heq => h (.inr rfl) (.inl heq), fun heq => h (.inr rfl) (.inr heq)⟩
  · rintro ⟨hids, hidName, hnameId, hnames⟩ key (rfl | rfl) (hw | hw)
    · exact hids hw
    · exact hidName hw
    · exact hnameId hw
    · exact hnames hw

/-- Different workspaces are found by different references. -/
structure WorkspacesOk (file : Bytes) : Prop where
  terminated : Terminated file
  separate : Separate workspaceKeys (workspaceFormat.records file)

theorem workspacesOk_nil : WorkspacesOk [] := ⟨.inl rfl, separate_nil⟩

variable {reg : Registry}

theorem WorkspacesOk.findWorkspace_eq (h : WorkspacesOk reg.workspaces)
    (hw : w ∈ workspaceFormat.records reg.workspaces) (href : ref ∈ workspaceKeys w) :
    findWorkspace reg ref = some w := by
  refine h.separate.find?_eq hw href fun v => ?_
  simp only [Bool.or_eq_true, decide_eq_true_eq, mem_workspaceKeys]
  exact or_congr eq_comm eq_comm

theorem findWorkspace_eq_none :
    findWorkspace reg ref = none ↔
      ∀ w ∈ workspaceFormat.records reg.workspaces, w.id ≠ ref ∧ w.name ≠ ref := by
  simp [findWorkspace]

theorem WorkspacesOk.append (h : WorkspacesOk file) (hvalid : w.Valid)
    (hid : ∀ v ∈ workspaceFormat.records file, v.id ≠ w.id ∧ v.name ≠ w.id)
    (hname : ∀ v ∈ workspaceFormat.records file, v.id ≠ w.name ∧ v.name ≠ w.name) :
    WorkspacesOk (file ++ lineOf w.fields) := by
  refine ⟨terminated_append h.terminated (terminated_lineOf _), ?_⟩
  have hrecords : workspaceFormat.records (file ++ lineOf w.fields) =
      workspaceFormat.records file ++ [w.kept] :=
    workspaceFormat_reads.records_append_print h.terminated hvalid
  rw [hrecords]
  refine h.separate.append_singleton fun v hv => ?_
  exact workspaceKeys_disjoint.mpr ⟨(hid v hv).1, (hname v hv).1, (hid v hv).2, (hname v hv).2⟩

theorem valid_changeWorkspace (file id : Bytes) (newName : Option Bytes)
    (hname : ∀ name, newName = some name → Clean name ∧ name ≠ []) :
    ∀ w ∈ (workspaceFormat.records file).filterMap (changeWorkspace id newName), w.Valid := by
  intro v hv
  obtain ⟨w, hw, hchange⟩ := mem_filterMap.mp hv
  have hvalid := valid_of_mem_workspaces hw
  unfold changeWorkspace at hchange
  split_ifs at hchange with hid
  · obtain ⟨name, rfl, rfl⟩ := Option.map_eq_some_iff.mp hchange
    obtain ⟨hclean, hne⟩ := hname name rfl
    have hfields := hvalid.clean
    simp only [WorkspaceRecord.fields, forall_mem_cons] at hfields
    refine ⟨?_, hvalid.id_ne_nil, clip_ne_nil (by decide) hne, hvalid.id_length,
      clip_length_lt (by decide) name, hvalid.directory_length⟩
    simp only [WorkspaceRecord.fields, forall_mem_cons]
    exact ⟨hfields.1, hclean.clip 128, hfields.2.2⟩
  · obtain rfl := Option.some.inj hchange
    exact hvalid

theorem filterMap_changeWorkspace_none (id : Bytes) (ws : List WorkspaceRecord) :
    ws.filterMap (changeWorkspace id none) = ws.filter (·.id ≠ id) := by
  rw [← filterMap_eq_filter]
  apply filterMap_congr
  intro w _
  by_cases hw : w.id = id <;> simp [changeWorkspace, hw, Option.guard]

theorem filterMap_changeWorkspace_some (id name : Bytes) (ws : List WorkspaceRecord) :
    ws.filterMap (changeWorkspace id (some name)) =
      ws.map fun w => if w.id = id then { w with name := clip 128 name } else w := by
  rw [← filterMap_eq_map']
  apply filterMap_congr
  intro w _
  by_cases hw : w.id = id <;> simp [changeWorkspace, hw]

theorem WorkspacesOk.remove (h : WorkspacesOk file) (id : Bytes) :
    WorkspacesOk (rewriteWorkspaces file id none) := by
  have hvalid := valid_changeWorkspace file id none (by simp)
  refine ⟨workspaceFormat_reads.terminated_rewrite hvalid, ?_⟩
  rw [rewriteWorkspaces, workspaceFormat_reads.records_rewrite hvalid,
    filterMap_changeWorkspace_none]
  exact (h.separate.sublist filter_sublist).map fun w _ => rfl

/-- A workspace may take a name that no other one is found by. -/
theorem WorkspacesOk.rename (h : WorkspacesOk file) (id : Bytes) {name : Bytes}
    (hclean : Clean name) (hne : name ≠ []) (hlength : name.length < 128)
    (hfree : ∀ v ∈ workspaceFormat.records file, name ∈ workspaceKeys v → v.id = id) :
    WorkspacesOk (rewriteWorkspaces file id (some name)) := by
  have hvalid := valid_changeWorkspace file id (some name)
    (fun n hn => Option.some.inj hn ▸ ⟨hclean, hne⟩)
  refine ⟨workspaceFormat_reads.terminated_rewrite hvalid, ?_⟩
  rw [rewriteWorkspaces, workspaceFormat_reads.records_rewrite hvalid,
    filterMap_changeWorkspace_some]
  refine Separate.map ?_ fun w _ => rfl
  apply h.separate.map_ite
  · intro v _ w _ hv hw hdisjoint
    exact (workspaceKeys_disjoint.mp hdisjoint).1 (hv.trans hw.symm)
  · intro v hv w hw hvid hwid
    have hvw : v ≠ w := by
      rintro rfl
      exact hwid hvid
    have hapart := workspaceKeys_disjoint.mp (h.separate.disjoint hv hw hvw)
    have hname : name ∉ workspaceKeys w := fun hmem => hwid (hfree w hw hmem)
    rw [mem_workspaceKeys, not_or] at hname
    rw [clip_eq_self hlength]
    exact workspaceKeys_disjoint.mpr ⟨hapart.1, hapart.2.1, hname.1, hname.2⟩

theorem createFields_bounds (h : createFields params = some q) :
    getRequiredString params (ascii "name") 128 = some q.name ∧
      getOptionalString params (ascii "directory") 4096 = some q.directory ∧
      Clean q.name ∧ q.name ≠ [] ∧ q.name.length < 128 := by
  simp only [createFields, Option.bind_eq_bind, Option.bind_eq_some_iff] at h
  obtain ⟨name, hname, directory, hdirectory, _, -, hq⟩ := h
  split_ifs at hq with hvalid
  obtain rfl := Option.some.inj hq
  obtain ⟨hlength, hzero⟩ := getRequiredString_bounds hname
  exact ⟨hname, hdirectory, clean_of_validateField hvalid hzero,
    ((validateField_iff name).mp hvalid).1, hlength⟩

structure CreateSound (host : Host) (env : Surroundings) (reg : Registry) (c : Connection)
    (params : Members) (q : CreateRequest) (w : WorkspaceRecord) : Prop where
  fields : createFields params = some q
  directory : resolveDirectory env (q.directory.getD []) = some w.directory
  record : w = ⟨env.id.text, q.name, w.directory⟩
  owner : isManagerOwner host c = true
  free : findWorkspace reg q.name = none
  valid : w.Valid

variable {host : Host}

theorem createChecks_sound (h : createChecks host env reg c params = .ok (q, w)) :
    CreateSound host env reg c params q w := by
  simp only [createChecks, bind_eq_ok, orRefuse_eq_ok, lockState_eq_ok, require_eq_ok,
    drawId_eq_ok, pure_eq_ok, Option.filter_eq_some_iff, Option.isNone_iff_eq_none] at h
  obtain ⟨q', hfields, directory, ⟨hdirectory, hvalid⟩, -, howner, -, -, -, hfree, -, -, hw⟩ := h
  obtain ⟨rfl, rfl⟩ := Prod.mk.inj hw
  obtain ⟨-, -, hname, hne, hlength⟩ := createFields_bounds hfields
  obtain ⟨hdirLength, hdirZero⟩ := resolveDirectory_bounds hdirectory
  refine ⟨hfields, hdirectory, rfl, howner, hfree, ?_, env.id.text_ne_nil, hne,
    env.id.text_length.trans_lt (by decide), hlength, hdirLength⟩
  simp only [WorkspaceRecord.fields, forall_mem_cons, not_mem_nil, false_imp_iff,
    implies_true, and_true]
  exact ⟨env.id.clean_text, hname, clean_of_validateField hvalid hdirZero⟩

/-- What a creation that passed its checks leaves of workspaces and processes. -/
theorem workspaceCreate_of_ok (h : createChecks host env reg c params = .ok (q, w)) :
    (workspaceCreate host env reg c params).reg.workspaces =
        (appendWorkspace reg.workspaces w (env.append 0)).1 ∧
      (workspaceCreate host env reg c params).reg.processes = reg.processes ∧
      ∀ errno, (appendWorkspace reg.workspaces w (env.append 0)).2 = some errno →
        (workspaceCreate host env reg c params).reply.isSuccess = false := by
  rw [workspaceCreate, h, guarded_ok]
  dsimp only
  generalize appendWorkspace reg.workspaces w (env.append 0) = appended
  obtain ⟨file, _ | errno⟩ := appended
  · dsimp only
    split
    · exact ⟨rfl, rfl, by simp⟩
    · split <;> exact ⟨rfl, rfl, by simp⟩
  · exact ⟨rfl, rfl, fun _ _ => rfl⟩

theorem renameFields_bounds (h : renameFields params = some (ref, newName)) :
    Clean newName ∧ newName ≠ [] ∧ newName.length < 128 := by
  simp only [renameFields, Option.bind_eq_bind, Option.bind_eq_some_iff] at h
  obtain ⟨_, -, name, hname, hq⟩ := h
  split_ifs at hq with hvalid
  obtain ⟨-, rfl⟩ := Prod.mk.inj (Option.some.inj hq)
  obtain ⟨hlength, hzero⟩ := getRequiredString_bounds hname
  exact ⟨clean_of_validateField hvalid hzero, ((validateField_iff name).mp hvalid).1, hlength⟩

theorem renameChecks_sound (h : renameChecks host env reg c params = .ok (w, newName)) :
    (∃ ref, renameFields params = some (ref, newName) ∧ findWorkspace reg ref = some w) ∧
      hasWorkspaceCapability host reg c w.id capWorkspaceRename = true ∧
      ∀ v, findWorkspace reg newName = some v → v.id = w.id := by
  simp only [renameChecks, bind_eq_ok, orRefuse_eq_ok, lockState_eq_ok, namedWorkspace_eq_ok,
    require_eq_ok] at h
  obtain ⟨⟨ref, name⟩, hfields, -, -, v, hv, -, hcapability, -, hfree, hrewrite⟩ := h
  split at hrewrite
  · simp at hrewrite
  · obtain ⟨rfl, rfl⟩ := Prod.mk.inj (pure_eq_ok.mp hrewrite)
    refine ⟨⟨ref, hfields, hv⟩, hcapability, fun existing hexisting => ?_⟩
    simpa [hexisting] using hfree

theorem lifecycleChecks_sound {delete : Bool}
    (h : lifecycleChecks host env reg c params delete = .ok plan) :
    (∃ ref, getRequiredString params (ascii "workspace_id") 128 = some ref ∧
        findWorkspace reg ref = some plan.workspace) ∧
      hasWorkspaceCapability host reg c plan.workspace.id
        (if delete then capWorkspaceDelete else capWorkspaceStop) = true := by
  simp only [lifecycleChecks, bind_eq_ok, orRefuse_eq_ok, lockState_eq_ok, namedWorkspace_eq_ok,
    require_eq_ok, pure_eq_ok, Option.bind_eq_bind, Option.bind_eq_some_iff] at h
  obtain ⟨⟨ref, stop, remove⟩, ⟨ref', href, stop', -, remove', -, hq⟩, -, -, w, hw, -, hcapability,
    rfl⟩ := h
  obtain ⟨rfl, -⟩ := Prod.mk.inj (Option.some.inj hq)
  exact ⟨⟨ref', href, hw⟩, hcapability⟩

theorem workspaceLifecycle_of_ok (h : lifecycleChecks host env reg c params true = .ok plan)
    (hverdict : lifecycleVerdict env reg plan true = .ok ()) :
    (workspaceLifecycle host env reg c params true).reg.workspaces =
      rewriteWorkspaces reg.workspaces plan.workspace.id none := by
  rw [workspaceLifecycle, h, guarded_ok]
  simp only [hverdict, if_true, deleteWorkspace]

/-- What a request changes about the workspaces. -/
inductive WorkspaceChange
  | create (w : WorkspaceRecord)
  | rename (id name : Bytes)
  | delete (id : Bytes)
deriving DecidableEq

def WorkspaceChange.apply : WorkspaceChange → List WorkspaceRecord → List WorkspaceRecord
  | .create w, ws => ws ++ [w]
  | .rename id name, ws => ws.map fun w => if w.id = id then { w with name := name } else w
  | .delete id, ws => ws.filter (·.id ≠ id)

/-- What a request has checked before it changes the workspaces. -/
def WorkspaceChange.Checked (reg : Registry) (id : RandomId) : WorkspaceChange → Prop
  | .create w => w.Valid ∧ w.id = id.text ∧ findWorkspace reg w.name = none
  | .rename id name => Clean name ∧ name ≠ [] ∧ name.length < 128 ∧
      ∀ v, findWorkspace reg name = some v → v.id = id
  | .delete _ => True

def WorkspaceChange.stored (file : Bytes) : WorkspaceChange → Bytes
  | .create w => file ++ lineOf w.fields
  | .rename id name => rewriteWorkspaces file id (some name)
  | .delete id => rewriteWorkspaces file id none

inductive WorkspaceMethod
  | create
  | rename
  | delete
deriving DecidableEq

/-- A request about workspaces with everything it depends on but their file. -/
structure WorkspaceCall where
  method : WorkspaceMethod
  params : Members
  connection : Connection
  env : Surroundings
  around : Registry

namespace WorkspaceCall
variable (host : Host) (call : WorkspaceCall) (reg : Registry)

/-- The registry at the time of the request. -/
def seen : Registry := { call.around with workspaces := reg.workspaces }

def handle : Outcome :=
  match call.method with
  | .create => workspaceCreate host call.env (call.seen reg) call.connection call.params
  | .rename => workspaceRename host call.env (call.seen reg) call.connection call.params
  | .delete => workspaceLifecycle host call.env (call.seen reg) call.connection call.params true

def requested : Option WorkspaceChange :=
  match call.method with
  | .create => do
    let q ← createFields call.params
    let directory ← resolveDirectory call.env (q.directory.getD [])
    return .create ⟨call.env.id.text, q.name, directory⟩
  | .rename => do
    let (ref, newName) ← renameFields call.params
    let w ← findWorkspace reg ref
    return .rename w.id newName
  | .delete => do
    let ref ← getRequiredString call.params (ascii "workspace_id") 128
    let w ← findWorkspace reg ref
    return .delete w.id

/-- What the request does: it may be refused, or fail before anything is stored. -/
def change : Option WorkspaceChange :=
  match call.method with
  | .create =>
    match createChecks host call.env (call.seen reg) call.connection call.params with
    | .ok (_, w) =>
      match (appendWorkspace reg.workspaces w (call.env.append 0)).2 with
      | none => some (.create w)
      | some _ => none
    | .error _ => none
  | .rename =>
    match renameChecks host call.env (call.seen reg) call.connection call.params with
    | .ok (w, newName) => some (.rename w.id newName)
    | .error _ => none
  | .delete =>
    match lifecycleChecks host call.env (call.seen reg) call.connection call.params true with
    | .ok plan =>
      match lifecycleVerdict call.env (call.seen reg) plan true with
      | .ok () => some (.delete plan.workspace.id)
      | .error _ => none
    | .error _ => none

/-- What is left of the workspaces, as a list. -/
def expected (ws : List WorkspaceRecord) : List WorkspaceRecord :=
  match call.change host reg with
  | some ch => ch.apply ws
  | none => ws

/-- A request does what it asks for; otherwise it fails and, as long as no append stops part-way,
the file stays. -/
theorem change_cases (hwhole : call.env.AppendsWhole) :
    (∃ ch, call.change host reg = some ch ∧ call.requested reg = some ch ∧
      ch.Checked reg call.env.id ∧
      (call.handle host reg).reg.workspaces = ch.stored reg.workspaces) ∨
    call.change host reg = none ∧ (call.handle host reg).reply.isSuccess = false ∧
      (call.handle host reg).reg.workspaces = reg.workspaces := by
  obtain ⟨method, params, c, env, around⟩ := call
  generalize hseen : ({ around with workspaces := reg.workspaces } : Registry) = seen
  have hworkspaces : seen.workspaces = reg.workspaces := hseen ▸ rfl
  have hfind : ∀ ref, findWorkspace seen ref = findWorkspace reg ref := fun ref => by
    rw [findWorkspace, hworkspaces, findWorkspace]
  cases method with
  | create =>
    simp only [change, handle, WorkspaceCall.seen, hseen, requested]
    cases hchecks : createChecks host env seen c params with
    | error r =>
      rw [workspaceCreate, hchecks]
      exact .inr ⟨rfl, rfl, hworkspaces⟩
    | ok qw =>
      obtain ⟨q, w⟩ := qw
      have hsound := createChecks_sound hchecks
      obtain ⟨hfile, -, hreply⟩ := workspaceCreate_of_ok hchecks
      rw [hworkspaces] at hfile hreply
      rcases happend : appendWorkspace reg.workspaces w (env.append 0) with ⟨file, _ | errno⟩
      · refine .inl ⟨.create w, by simp [happend], ?_, ⟨hsound.valid, ?_, ?_⟩, ?_⟩
        · rw [hsound.fields, hsound.record]
          simp [hsound.directory]
        · rw [hsound.record]
        · rw [hsound.record, ← hfind]
          exact hsound.free
        · rw [hfile, happend]
          exact (appendBounded_ok happend).2
      · refine .inr ⟨by simp [happend], hreply errno (by rw [happend]), ?_⟩
        rw [hfile, happend]
        exact hwhole.file_eq happend
  | rename =>
    simp only [change, handle, WorkspaceCall.seen, hseen, requested]
    cases hchecks : renameChecks host env seen c params with
    | error r =>
      rw [workspaceRename, hchecks]
      exact .inr ⟨rfl, rfl, hworkspaces⟩
    | ok wn =>
      obtain ⟨w, newName⟩ := wn
      obtain ⟨⟨ref, hfields, hw⟩, -, hfree⟩ := renameChecks_sound hchecks
      obtain ⟨hclean, hne, hlength⟩ := renameFields_bounds hfields
      refine .inl ⟨.rename w.id newName, rfl, ?_, ⟨hclean, hne, hlength, fun v hv => ?_⟩, ?_⟩
      · simp [hfields, ← hfind, hw]
      · exact hfree v (hfind newName ▸ hv)
      · rw [workspaceRename, hchecks, guarded_ok, WorkspaceChange.stored, ← hworkspaces]
        rfl
  | delete =>
    simp only [change, handle, WorkspaceCall.seen, hseen, requested]
    cases hchecks : lifecycleChecks host env seen c params true with
    | error r =>
      rw [workspaceLifecycle, hchecks]
      exact .inr ⟨rfl, rfl, hworkspaces⟩
    | ok plan =>
      dsimp only
      cases hverdict : lifecycleVerdict env seen plan true with
      | error r =>
        rw [workspaceLifecycle, hchecks, guarded_ok, hverdict]
        exact .inr ⟨rfl, rfl, hworkspaces⟩
      | ok u =>
        obtain ⟨⟨ref, href, hw⟩, -⟩ := lifecycleChecks_sound hchecks
        refine .inl ⟨.delete plan.workspace.id, rfl, ?_, trivial, ?_⟩
        · simp [href, ← hfind, hw]
        · rw [workspaceLifecycle_of_ok hchecks hverdict, hworkspaces, WorkspaceChange.stored]

/-- Only workspaces that are there are renamed and deleted. -/
theorem exists_of_requested {ch : WorkspaceChange} {id : Bytes}
    (h : call.requested reg = some ch) (hch : (∃ name, ch = .rename id name) ∨ ch = .delete id) :
    ∃ w ∈ workspaceFormat.records reg.workspaces, w.id = id := by
  obtain ⟨method, params, c, env, around⟩ := call
  cases method with
  | create =>
    simp only [requested, Option.bind_eq_bind, Option.bind_eq_some_iff] at h
    obtain ⟨q, -, directory, -, hq⟩ := h
    obtain rfl := Option.some.inj hq
    simp at hch
  | rename =>
    simp only [requested, Option.bind_eq_bind, Option.bind_eq_some_iff] at h
    obtain ⟨⟨ref, newName⟩, -, v, hv, hq⟩ := h
    obtain rfl := Option.some.inj hq
    have hid : v.id = id := by simpa using hch
    exact ⟨v, mem_of_find?_eq_some hv, hid⟩
  | delete =>
    simp only [requested, Option.bind_eq_bind, Option.bind_eq_some_iff] at h
    obtain ⟨ref, -, v, hv, hq⟩ := h
    obtain rfl := Option.some.inj hq
    have hid : v.id = id := by simpa using hch
    exact ⟨v, mem_of_find?_eq_some hv, hid⟩

/-- The id that is drawn for a new workspace is in no record yet. -/
def Fresh : Prop :=
  ∀ w ∈ workspaceFormat.records reg.workspaces,
    w.id ≠ call.env.id.text ∧ w.name ≠ call.env.id.text

/-- The line of a new or renamed workspace fits the buffer it is read through. -/
def Fits : Prop :=
  match call.method with
  | .create => ∀ q directory, createFields call.params = some q →
      resolveDirectory call.env (q.directory.getD []) = some directory →
      (lineOf [call.env.id.text, q.name, directory]).length < 512
  | .rename => ∀ ref newName w, renameFields call.params = some (ref, newName) →
      findWorkspace reg ref = some w → (lineOf [w.id, newName, w.directory]).length < 512
  | .delete => True

structure Meets : Prop where
  fresh : call.Fresh reg
  fits : call.Fits reg
  appends : call.env.AppendsWhole

end WorkspaceCall

variable {ch : WorkspaceChange}

/-- A checked change keeps workspaces apart. -/
theorem WorkspacesOk.stored (hok : WorkspacesOk reg.workspaces) {id : RandomId}
    (hfresh : ∀ w ∈ workspaceFormat.records reg.workspaces, w.id ≠ id.text ∧ w.name ≠ id.text)
    (hch : ch.Checked reg id) : WorkspacesOk (ch.stored reg.workspaces) := by
  cases ch with
  | create w =>
    obtain ⟨hvalid, hid, hfree⟩ := hch
    exact hok.append hvalid (hid ▸ hfresh) (findWorkspace_eq_none.mp hfree)
  | rename id name =>
    obtain ⟨hclean, hne, hlength, hfree⟩ := hch
    refine hok.rename id hclean hne hlength fun v hv hname => ?_
    exact hfree v (hok.findWorkspace_eq hv hname)
  | delete id => exact hok.remove id

/-- A record whose line fits the buffer it is read through. -/
def WorkspaceRecord.Fits (w : WorkspaceRecord) : Prop :=
  w.Valid ∧ (lineOf w.fields).length < 512

theorem workspaceFormat_reads_fits : workspaceFormat.Reads WorkspaceRecord.Fits id where
  one_lt_size := workspaceFormat_reads.one_lt_size
  terminated_print w h := workspaceFormat_reads.terminated_print w h.1
  records_print w h := by
    rw [workspaceFormat_reads.records_print w h.1, WorkspaceRecord.kept_eq h.2]
    rfl

/-- A checked change with lines that fit is what happens to the file, byte for byte. -/
theorem holds_stored (h : workspaceFormat.Holds WorkspaceRecord.Fits reg.workspaces ws)
    {id : RandomId} (hch : ch.Checked reg id)
    (hfits : ∀ w ∈ ch.apply ws, (lineOf w.fields).length < 512) :
    workspaceFormat.Holds WorkspaceRecord.Fits (ch.stored reg.workspaces) (ch.apply ws) := by
  have hrecords := h.records_eq workspaceFormat_reads_fits
  cases ch with
  | create w =>
    exact h.append ⟨hch.1, hfits w (by simp [WorkspaceChange.apply])⟩
  | rename id name =>
    obtain ⟨hclean, hne, hlength, -⟩ := hch
    have happly : ws.filterMap (changeWorkspace id (some name)) =
        (WorkspaceChange.rename id name).apply ws := by
      rw [filterMap_changeWorkspace_some, clip_eq_self hlength]
      rfl
    have hvalid := valid_changeWorkspace reg.workspaces id (some name)
      (fun n hn => Option.some.inj hn ▸ ⟨hclean, hne⟩)
    rw [hrecords] at hvalid
    rw [← happly] at hfits ⊢
    exact h.rewrite workspaceFormat_reads_fits fun w hw => ⟨hvalid w hw, hfits w hw⟩
  | delete id =>
    have happly : ws.filterMap (changeWorkspace id none) =
        (WorkspaceChange.delete id).apply ws := filterMap_changeWorkspace_none id ws
    rw [← happly] at hfits ⊢
    refine h.rewrite workspaceFormat_reads_fits fun w hw => ?_
    rw [happly] at hw
    exact h.2 w (mem_of_mem_filter hw)

/-- The workspaces that requests lead to from none, as a list and in the registry, when all of the
requests meet a condition. -/
inductive WorkspaceRun (host : Host) (Meets : WorkspaceCall → Registry → Prop) :
    List WorkspaceRecord → Registry → Prop
  | init {reg : Registry} (h : reg.workspaces = []) : WorkspaceRun host Meets [] reg
  | step {ws : List WorkspaceRecord} {reg : Registry} (call : WorkspaceCall)
      (h : WorkspaceRun host Meets ws reg) (hmeets : Meets call reg) :
      WorkspaceRun host Meets (call.expected host reg ws) (call.handle host reg).reg

/-- Every line of a change fits when the request's does. -/
theorem WorkspaceCall.Fits.lines {call : WorkspaceCall} (h : call.Fits reg)
    (hok : WorkspacesOk reg.workspaces)
    (hws : workspaceFormat.Holds WorkspaceRecord.Fits reg.workspaces ws)
    (hch : call.requested reg = some ch) : ∀ w ∈ ch.apply ws, (lineOf w.fields).length < 512 := by
  have hrecords := hws.records_eq workspaceFormat_reads_fits
  obtain ⟨method, params, c, env, around⟩ := call
  intro w hw
  cases method with
  | create =>
    simp only [requested, Option.bind_eq_bind, Option.bind_eq_some_iff] at hch
    obtain ⟨q, hq, directory, hdirectory, hch⟩ := hch
    obtain rfl := Option.some.inj hch
    rcases mem_append.mp hw with hw | hw
    · exact (hws.2 w hw).2
    · obtain rfl := mem_singleton.mp hw
      exact h q directory hq hdirectory
  | rename =>
    simp only [requested, Option.bind_eq_bind, Option.bind_eq_some_iff] at hch
    obtain ⟨⟨ref, newName⟩, hfields, v, hv, hch⟩ := hch
    obtain rfl := Option.some.inj hch
    obtain ⟨u, hu, rfl⟩ := mem_map.mp hw
    split_ifs with hid
    · -- the id tells the workspace that is renamed
      obtain rfl : u = v := by
        by_contra hne
        have hmem : v ∈ workspaceFormat.records reg.workspaces := mem_of_find?_eq_some hv
        exact (workspaceKeys_disjoint.mp
          (hok.separate.disjoint (hrecords ▸ hu) hmem hne)).1 hid
      exact h ref newName u hfields hv
    · exact (hws.2 u hu).2
  | delete =>
    simp only [requested, Option.bind_eq_bind, Option.bind_eq_some_iff] at hch
    obtain ⟨ref, -, v, -, hch⟩ := hch
    obtain rfl := Option.some.inj hch
    exact (hws.2 w (mem_of_mem_filter hw)).2

theorem WorkspaceRun.holds
    (h : WorkspaceRun host (fun call reg => call.Meets reg) ws reg) :
    workspaceFormat.Holds WorkspaceRecord.Fits reg.workspaces ws ∧
      WorkspacesOk reg.workspaces := by
  induction h with
  | init h =>
    rw [h]
    exact ⟨Format.holds_nil, workspacesOk_nil⟩
  | @step ws reg call _ hmeets ih =>
    obtain ⟨hholds, hok⟩ := ih
    rw [WorkspaceCall.expected]
    rcases call.change_cases host reg hmeets.appends with
      ⟨ch, hchange, hrequested, hchecked, hfile⟩ | ⟨hchange, -, hfile⟩
    · rw [hchange, hfile]
      exact ⟨holds_stored hholds hchecked (hmeets.fits.lines hok hholds hrequested),
        hok.stored hmeets.fresh hchecked⟩
    · rw [hchange, hfile]
      exact ⟨hholds, hok⟩

theorem split_at_id (h : Separate workspaceKeys ws) {id : Bytes} (hid : ∃ w ∈ ws, w.id = id) :
    ∃ before w after, ws = before ++ w :: after ∧ w.id = id ∧
      ∀ v ∈ before ++ after, v.id ≠ id := by
  obtain ⟨w, hw, rfl⟩ := hid
  obtain ⟨before, after, rfl⟩ := append_of_mem hw
  refine ⟨before, w, after, rfl, rfl, fun v hv => ?_⟩
  obtain ⟨-, htail, hcross⟩ := pairwise_append.mp h
  rcases mem_append.mp hv with hv | hv
  · exact (workspaceKeys_disjoint.mp (hcross v hv w mem_cons_self)).1
  · exact (workspaceKeys_disjoint.mp ((pairwise_cons.mp htail).1 v hv)).1.symm

variable {before after : List WorkspaceRecord}

theorem WorkspaceChange.apply_rename_split (h : ∀ v ∈ before ++ after, v.id ≠ w.id) (name : Bytes) :
    (WorkspaceChange.rename w.id name).apply (before ++ w :: after) =
      before ++ { w with name := name } :: after := by
  have hsame : ∀ vs : List WorkspaceRecord, (∀ v ∈ vs, v.id ≠ w.id) →
      vs.map (fun v => if v.id = w.id then { v with name := name } else v) = vs := by
    intro vs hvs
    rw [map_congr_left fun v hv => if_neg (hvs v hv), map_id']
  rw [forall_mem_append] at h
  rw [apply, map_append, map_cons, hsame before h.1, hsame after h.2, if_pos rfl]

theorem WorkspaceChange.apply_delete_split (h : ∀ v ∈ before ++ after, v.id ≠ w.id) :
    (WorkspaceChange.delete w.id).apply (before ++ w :: after) = before ++ after := by
  rw [forall_mem_append] at h
  rw [apply, filter_append, filter_cons_of_neg (by simp),
    filter_eq_self.mpr fun v hv => by simpa using h.1 v hv,
    filter_eq_self.mpr fun v hv => by simpa using h.2 v hv]

def createCall (id : RandomId) (name directory : Bytes) : WorkspaceCall where
  method := .create
  params := [(ascii "name", .str name), (ascii "directory", .str directory)]
  connection := .owner
  env := { Surroundings.calm with id := id }
  around := .empty

end Cubicle.Manager
